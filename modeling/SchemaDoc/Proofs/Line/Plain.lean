import SchemaDoc.Proofs.Line.Code
import SchemaDoc.Proofs.Text.Patch

/-!
# Plain text and the lines made of it

A text is plain when it has no keyword and only word characters, blanks, equals signs and opening
braces. The lines of a canonical schema are plain up to one mark: a comment, a terminator, a closing
brace or a keyword. There is one lemma for each such kind of line, which says what becomes of the
line and which scope it leaves.

Comments may hold anything that the code may not, as long as it is not a closing brace; a terminator
in a comment matters only in the body of an enum.
-/

namespace SchemaDoc

namespace Line

/-- Word characters, the blank, the equals sign and the opening brace. -/
def isPlainChar (c : Char) : Bool := Text.isWordChar c || c == ' ' || c == '=' || c == '{'

/-- A text is **plain** when it has plain characters only and no keyword. -/
structure Plain (t : Text) : Prop where
  /-- All characters are plain. -/
  isPlainChar_of_mem : ∀ c ∈ t, isPlainChar c = true
  /-- The text has no bare `enum`. -/
  enum : Text.cutBare? Markers.enumWord t = none
  /-- The text has no bare `message`. -/
  message : Text.cutBare? Markers.messageWord t = none

section Plain

variable {t u v : Text} {y : Char}

theorem Plain.notMem (h : Plain t) (hy : isPlainChar y = false) : y ∉ t := fun hmem => by
  simp [h.isPlainChar_of_mem y hmem] at hy

theorem Plain.slash_notMem (h : Plain t) : '/' ∉ t := h.notMem (by decide)

theorem Plain.terminator_notMem (h : Plain t) : ';' ∉ t := h.notMem (by decide)

theorem Plain.brace_notMem (h : Plain t) : '}' ∉ t := h.notMem (by decide)

theorem Plain.newline_notMem (h : Plain t) : '\n' ∉ t := h.notMem (by decide)

theorem Plain.return_notMem (h : Plain t) : '\r' ∉ t := h.notMem (by decide)

theorem plain_nil : Plain [] := ⟨by simp, rfl, rfl⟩

/-- Plain texts can be put together with something between them that ends a word. -/
theorem Plain.append_cons (hu : Plain u) (hv : Plain v) (hy : isPlainChar y = true)
    (hword : Text.isWordChar y = false) : Plain (u ++ y :: v) where
  isPlainChar_of_mem c hc := by
    rcases List.mem_append.mp hc with hc | hc
    · exact hu.isPlainChar_of_mem c hc
    · rcases List.mem_cons.mp hc with rfl | hc
      · exact hy
      · exact hv.isPlainChar_of_mem c hc
  enum := (Text.cutBare?_append_cons_eq_none_iff Markers.isWord_enumWord hword).mpr
    ⟨hu.enum, hv.enum⟩
  message := (Text.cutBare?_append_cons_eq_none_iff Markers.isWord_messageWord hword).mpr
    ⟨hu.message, hv.message⟩

/-- A word is plain when it is no keyword. -/
theorem Plain.of_isWord (h : ∀ c ∈ t, Text.isWordChar c = true) (henum : t ≠ Markers.enumWord)
    (hmessage : t ≠ Markers.messageWord) : Plain t where
  isPlainChar_of_mem c hc := by simp [isPlainChar, h c hc]
  enum := Text.cutBare?_eq_none_of_ne Markers.isWord_enumWord h henum
  message := Text.cutBare?_eq_none_of_ne Markers.isWord_messageWord h hmessage

/-- So many blanks. -/
def blanks (n : Nat) : Text := List.replicate n ' '

theorem Plain.blanks_append (n : Nat) (h : Plain t) : Plain (blanks n ++ t) := by
  induction n with
  | zero => exact h
  | succ n ih => exact plain_nil.append_cons ih (by decide) (by decide)

theorem plain_blanks (n : Nat) : Plain (blanks n) := by
  simpa using Plain.blanks_append n plain_nil

end Plain

/-! ### Comments -/

/-- A comment, if there is one. -/
def remark : Option Text → Text
  | some c => '/' :: '/' :: c
  | none => []

/-- A documentation comment, if there is one. -/
def docRemark : Option Text → Text
  | some c => '/' :: '/' :: '/' :: c
  | none => []

section Remark

variable {u : Text}

private theorem cut?_commentOpen_append (hu : '/' ∉ u) (c : Option Text) :
    Text.cut? Markers.commentOpen (u ++ remark c) = c.map fun c => (u, c) := by
  cases c with
  | none =>
    rw [Option.map_none, Text.cut?_eq_none_iff, remark, List.append_nil]
    intro hopen
    exact hu (hopen.subset (by simp [Markers.commentOpen]))
  | some c =>
    have hcut : Text.cut? Markers.commentOpen (u ++ Markers.commentOpen ++ c) = some (u, c) :=
      Text.cut?_append_of_notMem hu c
    rwa [List.append_assoc] at hcut

theorem emphasise_append_remark (hu : '/' ∉ u) (c : Option Text) :
    emphasise (u ++ remark c) = u ++ docRemark c := by
  rw [emphasise, cut?_commentOpen_append hu]
  cases c with
  | none => rfl
  | some c => simp [docRemark, Markers.docOpen]

theorem code_append_remark (hu : '/' ∉ u) (c : Option Text) : code (u ++ remark c) = u := by
  rw [code, cut?_commentOpen_append hu]
  cases c with
  | none => exact List.append_nil u
  | some c => rfl

theorem comment_append_remark (hu : '/' ∉ u) (c : Option Text) :
    (Markers.ofLine (u ++ remark c)).comment = c.map fun _ => Text.byteSize u := by
  have hcomment : (Markers.ofLine (u ++ remark c)).comment =
      Text.find? Markers.commentOpen (u ++ remark c) := rfl
  rw [hcomment, Text.find?, cut?_commentOpen_append hu, Option.map_map]
  rfl

end Remark

/-! ### The kinds of lines -/

section Kinds

variable {line u v : Text}

/-- A line without keywords in its code and without closing brace stays in its scope, and only its
comment and its terminator are edited. -/
theorem recast_of_no_keyword (s : Scope)
    (henum : Text.cutBare? Markers.enumWord (code line) = none)
    (hmessage : Text.cutBare? Markers.messageWord (code line) = none) (hbrace : '}' ∉ line) :
    recast s line =
      (⟨(hoist (Markers.ofLine line) (emphasise line)).hoisted,
        separate s (hoist (Markers.ofLine line) (emphasise line)).line⟩, s) := by
  have hclose := blockClose_ofLine_eq_none_iff.mpr hbrace
  have hdeclare : (Markers.ofLine line).declaresMessage = false := by
    rw [declaresMessage_ofLine, hmessage]
    rfl
  have henter : s.enter (Markers.ofLine line) = s := by
    rw [Scope.enter, entersEnum_ofLine, henum]
    rfl
  rw [recast, henter, edit, close_eq_self s hclose, declare_eq_self hdeclare,
    leave_eq_self s hclose]

/-- The terminator of a comment does not stand before the comment. -/
theorem terminatorPrecedesComment_append_remark (hslash : '/' ∉ u) (hu : ';' ∉ u)
    (c : Option Text) : (Markers.ofLine (u ++ remark c)).terminatorPrecedesComment = false := by
  rw [Markers.terminatorPrecedesComment, comment_append_remark hslash]
  cases c with
  | none => split <;> simp_all
  | some c =>
    cases hterminator : (Markers.ofLine (u ++ remark (some c))).terminator with
    | none => rfl
    | some t =>
      obtain ⟨⟨head, tail⟩, hcut, rfl⟩ := Option.map_eq_some_iff.mp hterminator
      have hline := (Text.cut?_singleton_eq_some_iff.mp hcut).1
      -- a terminator before the comment would stand in the code
      refine decide_eq_false fun hlt => hu ?_
      obtain ⟨w, rfl, -⟩ := Text.exists_of_append_eq hline.symm hlt
      simp

/-- **A plain line**, with or without a comment: a comment becomes a documentation comment. -/
theorem recast_plain (s : Scope) (hu : Plain u) {c : Option Text} (hbrace : ∀ t ∈ c, '}' ∉ t)
    (hc : s = .outside ∨ ∀ t ∈ c, ';' ∉ t) :
    recast s (u ++ remark c) = (⟨none, u ++ docRemark c⟩, s) := by
  have hcode := code_append_remark hu.slash_notMem c
  have hclose : '}' ∉ u ++ remark c := by
    have := hu.brace_notMem
    cases c <;> simp_all [remark]
  rw [recast_of_no_keyword s (by rw [hcode, hu.enum]) (by rw [hcode, hu.message]) hclose,
    hoist_eq_self (terminatorPrecedesComment_append_remark hu.slash_notMem hu.terminator_notMem c),
    emphasise_append_remark hu.slash_notMem]
  rcases hc with rfl | hc
  -- outside an enum a terminator in the comment is left alone
  · rfl
  · have := hu.terminator_notMem
    rw [separate_eq_self]
    cases c <;> simp_all [docRemark]

private theorem Plain.slash_notMem_statement (hu : Plain u) (hv : Plain v) :
    '/' ∉ u ++ ';' :: v := by
  simp [hu.slash_notMem, hv.slash_notMem]

/-- The code of a statement has no keyword. -/
theorem recast_statement_of_code (s : Scope) (hu : Plain u) (hv : Plain v) {c : Option Text}
    (hbrace : ∀ t ∈ c, '}' ∉ t) :
    recast s (u ++ ';' :: v ++ remark c) =
      (⟨(hoist (Markers.ofLine (u ++ ';' :: v ++ remark c)) (u ++ ';' :: v ++ docRemark c)).hoisted,
        separate s (hoist (Markers.ofLine (u ++ ';' :: v ++ remark c))
          (u ++ ';' :: v ++ docRemark c)).line⟩, s) := by
  have hslash := hu.slash_notMem_statement hv
  have hclose : '}' ∉ u ++ ';' :: v ++ remark c := by
    have hbrace_u := hu.brace_notMem
    have hbrace_v := hv.brace_notMem
    cases c <;> simp_all [remark]
  have hcode := code_append_remark hslash c
  rw [recast_of_no_keyword s _ _ hclose, emphasise_append_remark hslash]
  · rw [hcode, Text.cutBare?_append_cons_eq_none_iff Markers.isWord_enumWord (by decide)]
    exact ⟨hu.enum, hv.enum⟩
  · rw [hcode, Text.cutBare?_append_cons_eq_none_iff Markers.isWord_messageWord (by decide)]
    exact ⟨hu.message, hv.message⟩

/-- **A statement** without a comment. -/
theorem recast_statement (s : Scope) (hu : Plain u) :
    recast s (u ++ [';']) = (⟨none, separate s (u ++ [';'])⟩, s) := by
  have hrecast := recast_statement_of_code s hu plain_nil (c := none) (by simp)
  have hslash := hu.slash_notMem_statement plain_nil
  have hcomment : (Markers.ofLine (u ++ [';'])).comment = none := by
    simpa [remark] using comment_append_remark hslash none
  have hfalse : (Markers.ofLine (u ++ [';'])).terminatorPrecedesComment = false := by
    rw [Markers.terminatorPrecedesComment, hcomment]
    split <;> simp_all
  simpa [remark, docRemark, hoist_eq_self hfalse] using hrecast

/-- **A statement with a comment**: the comment goes to a line of its own. -/
theorem recast_statement_remark (s : Scope) (hu : Plain u) (hv : Plain v) {c : Text}
    (hbrace : '}' ∉ c) :
    recast s (u ++ ';' :: v ++ '/' :: '/' :: c) =
      (⟨some (v ++ '/' :: '/' :: '/' :: c), separate s (u ++ [';'])⟩, s) := by
  have hrecast := recast_statement_of_code s hu hv (c := some c) (by simpa using hbrace)
  have hslash := hu.slash_notMem_statement hv
  have hcut (w : Text) : Text.cut? [';'] (u ++ ';' :: v ++ w) = some (u, v ++ w) :=
    Text.cut?_singleton_eq_some_iff.mpr ⟨by simp, hu.terminator_notMem⟩
  have htrue : (Markers.ofLine (u ++ ';' :: v ++ remark (some c))).terminatorPrecedesComment =
      true := by
    have hterminator : (Markers.ofLine (u ++ ';' :: v ++ remark (some c))).terminator =
        some (Text.byteSize u) := congrArg (Option.map _) (hcut _)
    rw [Markers.terminatorPrecedesComment, comment_append_remark hslash, hterminator]
    have := Char.utf8Size_pos ';'
    simp only [Option.map_some, Text.byteSize_append, Text.byteSize_cons, decide_eq_true_eq]
    omega
  rw [hoist, hcut, htrue] at hrecast
  exact hrecast

/-- A line without a comment and without a terminator has its keywords and its brace edited only. -/
theorem recast_of_no_statement (s : Scope) (hslash : '/' ∉ line) (hterminator : ';' ∉ line) :
    recast s line =
      (⟨none, declare (Markers.ofLine line)
          (close (Markers.ofLine line) (s.enter (Markers.ofLine line)) line)⟩,
        (s.enter (Markers.ofLine line)).leave (Markers.ofLine line)) := by
  have hemphasise : emphasise line = line := by
    simpa [remark, docRemark] using emphasise_append_remark hslash none
  have hfalse : (Markers.ofLine line).terminatorPrecedesComment = false := by
    simpa [remark] using terminatorPrecedesComment_append_remark hslash hterminator none
  rw [recast, hemphasise, edit, hoist_eq_self hfalse, separate_eq_self _ hterminator]

/-- A line without a comment is all code. -/
theorem code_of_slash_notMem (hslash : '/' ∉ line) : code line = line := by
  simpa [remark] using code_append_remark hslash none

/-- A closing brace is terminated or ends the scope, and nothing else happens. -/
private theorem recast_brace (s : Scope) (hu : Plain u) :
    recast s (u ++ ['}']) =
      (⟨none, close (Markers.ofLine (u ++ ['}'])) s (u ++ ['}'])⟩,
        s.leave (Markers.ofLine (u ++ ['}']))) := by
  have hslash : '/' ∉ u ++ ['}'] := by simpa using hu.slash_notMem
  have hterminator : ';' ∉ u ++ ['}'] := by simpa using hu.terminator_notMem
  have henter : s.enter (Markers.ofLine (u ++ ['}'])) = s := by
    rw [Scope.enter, entersEnum_ofLine, code_of_slash_notMem hslash,
      (Text.cutBare?_append_cons_eq_none_iff Markers.isWord_enumWord (by decide)).mpr
        ⟨hu.enum, rfl⟩]
    rfl
  have hdeclare : (Markers.ofLine (u ++ ['}'])).declaresMessage = false := by
    rw [declaresMessage_ofLine, code_of_slash_notMem hslash,
      (Text.cutBare?_append_cons_eq_none_iff Markers.isWord_messageWord (by decide)).mpr
        ⟨hu.message, rfl⟩]
    rfl
  rw [recast_of_no_statement s hslash hterminator, henter, declare_eq_self hdeclare]

private theorem blockClose_brace (hu : Plain u) :
    (Markers.ofLine (u ++ ['}'])).blockClose = some (Text.byteSize u) ∧
      Text.cut? ['}'] (u ++ ['}']) = some (u, []) := by
  have hcut : Text.cut? ['}'] (u ++ ['}']) = some (u, []) :=
    Text.cut?_singleton_eq_some_iff.mpr ⟨rfl, hu.brace_notMem⟩
  exact ⟨congrArg (Option.map _) hcut, hcut⟩

/-- **A closing brace** outside an enum gets a terminator. -/
theorem recast_brace_outside (hu : Plain u) :
    recast .outside (u ++ ['}']) = (⟨none, u ++ ['}', ';']⟩, .outside) := by
  obtain ⟨hclose, hcut⟩ := blockClose_brace hu
  rw [recast_brace .outside hu]
  unfold close
  rw [hclose, hcut]
  rfl

/-- **The closing brace of an enum** stays as it is. -/
theorem recast_brace_enumBody (hu : Plain u) :
    recast .enumBody (u ++ ['}']) = (⟨none, u ++ ['}']⟩, .outside) := by
  obtain ⟨hclose, -⟩ := blockClose_brace hu
  rw [recast_brace .enumBody hu, Scope.leave, Scope.exits, hclose]
  rfl

variable (n : Nat)

theorem cutBare?_blanks_append_eq_none_iff {word : Text} (hw : Text.IsWord word) :
    Text.cutBare? word (blanks n ++ u) = none ↔ Text.cutBare? word u = none := by
  induction n with
  | zero => rfl
  | succ n ih => rw [← ih]; exact Text.cutBare?_cons_eq_none_iff hw (by decide)

/-- The keyword of a line is found behind its indentation. -/
theorem cutBare?_keyword {word : Text} (hw : Text.IsWord word) (v : Text) :
    Text.cutBare? word (blanks n ++ word ++ ' ' :: v) = some (blanks n, ' ' :: v) := by
  rw [Text.cutBare?_eq_some_iff hw]
  refine ⟨rfl, ?_, ?_⟩
  · have hblank : Text.isWordChar ' ' = false := by decide
    rw [blanks, List.getLast?_replicate]
    split <;> simp [Text.standsFree, hblank]
  · have hnil : Text.cutBare? word [] = none := Text.cutBareFrom?_nil hw none 0
    simpa using (cutBare?_blanks_append_eq_none_iff n hw).mpr hnil

/-- What is neither in the keyword of a line nor in what follows it is not in the line. -/
private theorem cutBare?_other {word key : Text} (hw : Text.IsWord word)
    (hkey : Text.cutBare? word key = none) (hv : Text.cutBare? word v = none) :
    Text.cutBare? word (blanks n ++ key ++ ' ' :: v) = none := by
  rw [List.append_assoc, cutBare?_blanks_append_eq_none_iff n hw,
    Text.cutBare?_append_cons_eq_none_iff hw (by decide)]
  exact ⟨hkey, hv⟩

theorem notMem_keyword {y : Char} {key : Text} (hkey : Text.IsWord key) (hv : Plain v)
    (hy : isPlainChar y = false) : y ∉ blanks n ++ key ++ ' ' :: v := by
  have hword : Text.isWordChar y = false := by
    simp only [isPlainChar, Bool.or_eq_false_iff] at hy
    exact hy.1.1.1
  have hblank : y ≠ ' ' := by
    rintro rfl
    exact absurd hy (by decide)
  simp [(plain_blanks n).notMem hy, hkey.notMem hword, hblank, hv.notMem hy]

/-- A line that opens a block has its keyword edited only, and is in the scope that it opens. -/
private theorem recast_keyword (s : Scope) {key : Text} (hkey : Text.IsWord key) (hv : Plain v) :
    recast s (blanks n ++ key ++ ' ' :: v) =
      (⟨none, declare (Markers.ofLine (blanks n ++ key ++ ' ' :: v)) (blanks n ++ key ++ ' ' :: v)⟩,
        s.enter (Markers.ofLine (blanks n ++ key ++ ' ' :: v))) := by
  have hclose : (Markers.ofLine (blanks n ++ key ++ ' ' :: v)).blockClose = none :=
    blockClose_ofLine_eq_none_iff.mpr (notMem_keyword n hkey hv (by decide))
  rw [recast_of_no_statement s (notMem_keyword n hkey hv (by decide))
    (notMem_keyword n hkey hv (by decide)), close_eq_self _ hclose, leave_eq_self _ hclose]

private theorem code_keyword {key : Text} (hkey : Text.IsWord key) (hv : Plain v) :
    code (blanks n ++ key ++ ' ' :: v) = blanks n ++ key ++ ' ' :: v :=
  code_of_slash_notMem (notMem_keyword n hkey hv (by decide))

/-- **A line that opens an enum** stays as it is. -/
theorem recast_enum (s : Scope) (hv : Plain v) :
    recast s (blanks n ++ Markers.enumWord ++ ' ' :: v) =
      (⟨none, blanks n ++ Markers.enumWord ++ ' ' :: v⟩, .enumBody) := by
  have hw := Markers.isWord_enumWord
  have henter : s.enter (Markers.ofLine (blanks n ++ Markers.enumWord ++ ' ' :: v)) =
      .enumBody := by
    rw [Scope.enter, entersEnum_ofLine, code_keyword n hw hv, cutBare?_keyword n hw]
    rfl
  have hdeclare :
      (Markers.ofLine (blanks n ++ Markers.enumWord ++ ' ' :: v)).declaresMessage = false := by
    rw [declaresMessage_ofLine, code_keyword n hw hv,
      cutBare?_other n Markers.isWord_messageWord rfl hv.message]
    rfl
  rw [recast_keyword n s hw hv, declare_eq_self hdeclare, henter]

/-- **A line that opens a message** loses the keyword and begins with `struct`. -/
theorem recast_message (hv : Plain v) :
    recast .outside (blanks n ++ Markers.messageWord ++ ' ' :: v) =
      (⟨none, Markers.structWord ++ blanks n ++ ' ' :: v⟩, .outside) := by
  have hw := Markers.isWord_messageWord
  have henter : Scope.outside.enter (Markers.ofLine (blanks n ++ Markers.messageWord ++ ' ' :: v)) =
      .outside := by
    rw [Scope.enter, entersEnum_ofLine, code_keyword n hw hv,
      cutBare?_other n Markers.isWord_enumWord rfl hv.enum]
    rfl
  have hdeclare :
      (Markers.ofLine (blanks n ++ Markers.messageWord ++ ' ' :: v)).declaresMessage = true := by
    rw [declaresMessage_ofLine, code_keyword n hw hv, cutBare?_keyword n hw]
    rfl
  rw [recast_keyword n .outside hw hv, henter, declare, cutBare?_keyword n hw, hdeclare]
  rfl

end Kinds

end Line

end SchemaDoc
