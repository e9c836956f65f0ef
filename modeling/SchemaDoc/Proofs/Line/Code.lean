import SchemaDoc.Line.Recast
import SchemaDoc.Proofs.Text.Search
import Mathlib.Tactic.Tauto

/-!
# The code of a line

The code of a line is what stands before its comment. Whether a line opens an enum or declares a
message is decided by its code alone, `any_beforeComment`, although the keyword is searched in the
whole line: a keyword in the code is found before any in the comment, and one in the comment is not
before the comment. `any_beforeComment_iff` says the same without reference to a search.

The steps of the editing bring in no character beyond a few (`recast_subset`), and all others come
out as often as they came in: `count_recast`. The last part says when a step leaves the line alone.
-/

namespace SchemaDoc

theorem Markers.isWord_enumWord : Text.IsWord Markers.enumWord := by decide

theorem Markers.isWord_messageWord : Text.IsWord Markers.messageWord := by decide

theorem isWordChar_slash : Text.isWordChar '/' = false := by decide

namespace Line

/-- What stands before the comment of a line; without a comment, the whole line. -/
def code (line : Text) : Text :=
  match Text.cut? Markers.commentOpen line with
  | some (head, _) => head
  | none => line

/-- The code of a line and the comment behind it. -/
theorem code_cases (line : Text) :
    (Text.cut? Markers.commentOpen line = none ∧ code line = line ∧
      ¬ Markers.commentOpen <:+: line) ∨
    ∃ head tail, Text.cut? Markers.commentOpen line = some (head, tail) ∧ code line = head ∧
      line = head ++ '/' :: '/' :: tail ∧ ¬ Markers.commentOpen <:+: head := by
  cases h : Text.cut? Markers.commentOpen line with
  | none =>
    refine Or.inl ⟨rfl, ?_, Text.cut?_eq_none_iff.mp h⟩
    rw [code, h]
  | some parts =>
    obtain ⟨head, tail⟩ := parts
    refine Or.inr ⟨head, tail, rfl, ?_, ?_, Text.not_infix_of_cut? (by decide) h⟩
    · rw [code, h]
    · rw [Text.eq_append_of_cut? h, List.append_assoc]
      rfl

/-- A line without a comment is all code. -/
theorem code_eq_self {line : Text} (h : ¬ Markers.commentOpen <:+: line) : code line = line := by
  rw [code, Text.cut?_eq_none_iff.mpr h]

theorem code_of_cut? {line head tail : Text}
    (h : Text.cut? Markers.commentOpen line = some (head, tail)) : code line = head := by
  rw [code, h]

theorem not_infix_code (line : Text) : ¬ Markers.commentOpen <:+: code line := by
  obtain ⟨-, hcode, hline⟩ | ⟨head, tail, -, hcode, -, hhead⟩ := code_cases line
  · rwa [hcode]
  · rwa [hcode]

theorem code_isPrefix (line : Text) : code line <+: line := by
  obtain ⟨-, hcode, -⟩ | ⟨head, tail, -, hcode, hline, -⟩ := code_cases line
  · rw [hcode]
  · rw [hcode, hline]
    exact List.prefix_append _ _

/-- The comment does not begin at another character than a slash. -/
theorem code_append_cons {u : Text} {y : Char} (hu : ¬ Markers.commentOpen <:+: u) (hy : y ≠ '/')
    (v : Text) : code (u ++ y :: v) = u ++ y :: code v := by
  have hy' : y ∉ Markers.commentOpen := by simpa [Markers.commentOpen] using hy
  have hcut := Text.cut?_append_cons (by decide) hy' u v
  rw [Text.cut?_eq_none_iff.mpr hu] at hcut
  unfold code
  rw [hcut]
  cases Text.cut? Markers.commentOpen v <;> rfl

/-- What stands before the first slash belongs to the code. -/
theorem code_append {u : Text} (hu : '/' ∉ u) (v : Text) : code (u ++ v) = u ++ code v := by
  induction u with
  | nil => rfl
  | cons c u ih =>
    simp only [List.mem_cons, not_or] at hu
    have hcode := code_append_cons (u := []) (by decide) (Ne.symm hu.1) (u ++ v)
    rw [List.cons_append, List.cons_append, ← ih hu.2]
    exact hcode

section Keyword

variable {word : Text}

/-- **A keyword before the comment is a keyword of the code.** -/
theorem any_beforeComment (hw : Text.IsWord word) (line : Text) :
    (Text.findBare? word line).any (Markers.ofLine line).beforeComment =
      (Text.cutBare? word (code line)).isSome := by
  obtain ⟨hcut, hcode, -⟩ | ⟨head, tail, hcut, hcode, hline, -⟩ := code_cases line
  · have hbefore (offset : Nat) : (Markers.ofLine line).beforeComment offset = true := by
      simp [Markers.beforeComment, Markers.ofLine, Text.find?, hcut]
    rw [hcode, Text.findBare?]
    cases Text.cutBare? word line <;> simp [hbefore]
  · have hbefore (offset : Nat) : (Markers.ofLine line).beforeComment offset =
        decide (offset < Text.byteSize head) := by
      simp [Markers.beforeComment, Markers.ofLine, Text.find?, hcut]
    have hfind := Text.cutBare?_append_cons hw isWordChar_slash head ('/' :: tail)
    rw [← hline] at hfind
    rw [hcode, Text.findBare?, hfind]
    cases hhead : Text.cutBare? word head with
    | some parts =>
      obtain ⟨front, back⟩ := parts
      -- found in the code: it begins before the code ends
      have hsize := congrArg Text.byteSize (Text.eq_append_of_cutBare? hw hhead).1
      have hpos := Text.byteSize_pos hw.ne_nil
      simp only [Text.byteSize_append] at hsize
      simp [hbefore]
      omega
    | none =>
      -- found in the comment, if at all: it begins behind the code
      cases Text.cutBare? word ('/' :: tail) <;> simp [hbefore]

/-- A line **mentions** a word when the bare word begins in it before its first comment. -/
def Mentions (word line : Text) : Prop :=
  ∃ head tail, line = head ++ word ++ tail ∧ Text.standsFree head.getLast? tail = true ∧
    ¬ Markers.commentOpen <:+: head

/-- **The markers say what the line mentions.** -/
theorem any_beforeComment_iff (hw : Text.IsWord word) {line : Text} :
    (Text.findBare? word line).any (Markers.ofLine line).beforeComment = true ↔
      Mentions word line := by
  rw [any_beforeComment hw]
  constructor
  · intro h
    obtain ⟨⟨head, tail⟩, hcut⟩ := Option.isSome_iff_exists.mp h
    obtain ⟨hcode, hfree⟩ := Text.eq_append_of_cutBare? hw hcut
    have hhead : ¬ Markers.commentOpen <:+: head := by
      intro hopen
      have hfront : head <+: code line := by
        rw [hcode, List.append_assoc]
        exact List.prefix_append _ _
      exact not_infix_code line (hopen.trans hfront.isInfix)
    -- the comment that follows the code does not take away the freedom of the word
    obtain ⟨-, hline, -⟩ | ⟨front, back, -, hline, hback, -⟩ := code_cases line
    · exact ⟨head, tail, by rw [← hline, hcode], hfree, hhead⟩
    · refine ⟨head, tail ++ '/' :: '/' :: back, ?_, ?_, hhead⟩
      · rw [hback, ← hline, hcode, List.append_assoc]
      · rwa [Text.standsFree_append_cons isWordChar_slash]
  · rintro ⟨head, tail, rfl, hfree, hhead⟩
    have hslash : '/' ∉ word := hw.notMem isWordChar_slash
    have hcode : code (head ++ word ++ tail) = head ++ word ++ code tail := by
      obtain ⟨w, word, rfl⟩ := List.exists_cons_of_ne_nil hw.ne_nil
      simp only [List.mem_cons, not_or] at hslash
      rw [List.append_assoc, List.cons_append, code_append_cons hhead (Ne.symm hslash.1),
        code_append hslash.2]
      simp
    have hfree' := Text.standsFree_of_isPrefix (code_isPrefix tail) hfree
    rw [hcode, Text.cutBare?_append_word hw hfree']
    split <;> rfl

end Keyword

theorem entersEnum_ofLine (line : Text) :
    (Markers.ofLine line).entersEnum = (Text.cutBare? Markers.enumWord (code line)).isSome :=
  any_beforeComment Markers.isWord_enumWord line

theorem declaresMessage_ofLine (line : Text) :
    (Markers.ofLine line).declaresMessage =
      (Text.cutBare? Markers.messageWord (code line)).isSome :=
  any_beforeComment Markers.isWord_messageWord line

theorem blockClose_ofLine_eq_none_iff {line : Text} :
    (Markers.ofLine line).blockClose = none ↔ '}' ∉ line := by
  rw [← Text.cut?_singleton_eq_none_iff]
  exact Option.map_eq_none_iff

/-! ### What the steps bring in -/

section Subset

variable (m : Markers) (s : Scope) (t : Text)

theorem emphasise_subset : emphasise t ⊆ '/' :: t := by
  unfold emphasise
  split
  · next head tail hcut =>
    rw [Text.eq_append_of_cut? hcut]
    intro c hc
    simp only [Markers.docOpen, Markers.commentOpen, List.mem_append, List.mem_cons] at hc ⊢
    tauto
  · exact List.subset_cons_self _ _

theorem hoist_subset {l : Text} (hl : l ∈ (hoist m t).lines) : l ⊆ t := by
  have hself : l ∈ (⟨none, t⟩ : Recast).lines → l ⊆ t := fun hl => by
    rw [List.mem_singleton.mp hl]
    exact List.Subset.refl _
  unfold hoist at hl
  split at hl
  · next head tail hcut =>
    obtain ⟨rfl, -⟩ := Text.cut?_singleton_eq_some_iff.mp hcut
    split at hl
    · obtain rfl | rfl : l = tail ∨ l = head ++ [';'] := by simpa [Recast.lines] using hl
      · exact List.subset_append_of_subset_right _ (List.subset_cons_self _ _)
      · simp
    · exact hself hl
  · exact hself hl

theorem separate_subset : separate s t ⊆ ',' :: t := by
  unfold separate
  split
  · next head tail hcut =>
    obtain ⟨rfl, -⟩ := Text.cut?_singleton_eq_some_iff.mp hcut
    intro c hc
    simp only [List.mem_append, List.mem_cons] at hc ⊢
    tauto
  · exact List.subset_cons_self _ _

theorem close_subset : close m s t ⊆ ';' :: t := by
  unfold close
  split
  · next head tail hcut =>
    obtain ⟨rfl, -⟩ := Text.cut?_singleton_eq_some_iff.mp hcut
    intro c hc
    simp only [List.mem_append, List.mem_cons] at hc ⊢
    tauto
  · exact List.subset_cons_self _ _

theorem declare_subset : declare m t ⊆ Markers.structWord ++ t := by
  have hself : t ⊆ Markers.structWord ++ t := List.subset_append_right _ _
  unfold declare
  split
  · next head tail hcut =>
    split
    · rw [(Text.eq_append_of_cutBare? Markers.isWord_messageWord hcut).1]
      intro c hc
      simp only [List.mem_append] at hc ⊢
      tauto
    · exact hself
  · exact hself

/-- **All that comes out of a line** comes from it, apart from slashes, commas, terminators and the
letters of `struct`. -/
theorem recast_subset {line l : Text} (hl : l ∈ (recast s line).1.lines) :
    l ⊆ Markers.structWord ++ ';' :: ',' :: '/' :: line := by
  have hhoist {l : Text} (hl : l ∈ (hoist (Markers.ofLine line) (emphasise line)).lines) :
      l ⊆ '/' :: line := List.Subset.trans (hoist_subset _ _ hl) (emphasise_subset line)
  rcases List.mem_append.mp hl with hl | hl
  · refine List.Subset.trans (hhoist (List.mem_append_left _ hl)) ?_
    intro c hc
    simp only [List.mem_append, List.mem_cons] at hc ⊢
    tauto
  · rw [List.mem_singleton.mp hl]
    refine List.Subset.trans (declare_subset _ _) (List.append_subset.mpr
      ⟨List.subset_append_left _ _, List.subset_append_of_subset_right _ ?_⟩)
    refine List.Subset.trans (close_subset _ _ _) (List.cons_subset_cons _ ?_)
    refine List.Subset.trans (separate_subset _ _) (List.cons_subset_cons _ ?_)
    exact hhoist (List.mem_append_right _ (List.mem_singleton_self _))

end Subset

/-! ### Characters that no step touches -/

/-- The characters that some step puts in or takes out. -/
def touched : Text := Markers.structWord ++ Markers.messageWord ++ [';', ',', '/']

section Count

variable {c : Char} (hc : c ∉ touched) (m : Markers) (s : Scope) (t : Text)

include hc

theorem count_emphasise : (emphasise t).count c = t.count c := by
  have hslash : '/' ≠ c := ne_of_mem_of_not_mem (by decide) hc
  unfold emphasise
  split
  · next hcut =>
    rw [Text.eq_append_of_cut? hcut]
    simp [Markers.docOpen, Markers.commentOpen, hslash]
  · rfl

theorem count_hoist :
    (hoist m t).hoisted.toList.flatten.count c + (hoist m t).line.count c = t.count c := by
  have hterminator : ';' ≠ c := ne_of_mem_of_not_mem (by decide) hc
  unfold hoist
  split
  · next hcut =>
    obtain ⟨rfl, -⟩ := Text.cut?_singleton_eq_some_iff.mp hcut
    split
    · simp [hterminator, Nat.add_comm]
    · simp
  · simp

theorem count_separate : (separate s t).count c = t.count c := by
  have hcomma : ',' ≠ c := ne_of_mem_of_not_mem (by decide) hc
  have hterminator : ';' ≠ c := ne_of_mem_of_not_mem (by decide) hc
  unfold separate
  split
  · next hcut =>
    obtain ⟨rfl, -⟩ := Text.cut?_singleton_eq_some_iff.mp hcut
    simp [hcomma, hterminator]
  · rfl

theorem count_close : (close m s t).count c = t.count c := by
  have hterminator : ';' ≠ c := ne_of_mem_of_not_mem (by decide) hc
  unfold close
  split
  · next hcut =>
    obtain ⟨rfl, -⟩ := Text.cut?_singleton_eq_some_iff.mp hcut
    simp [List.count_cons, hterminator]
  · rfl

theorem count_declare : (declare m t).count c = t.count c := by
  simp only [touched, List.mem_append, not_or] at hc
  unfold declare
  split
  · next hcut =>
    rw [(Text.eq_append_of_cutBare? Markers.isWord_messageWord hcut).1]
    split
    · simp [List.count_eq_zero.mpr hc.1.1, List.count_eq_zero.mpr hc.1.2]
    · rfl
  · rfl

/-- **A character that no step touches** comes out as often as it came in. -/
theorem count_recast (line : Text) :
    (recast s line).1.lines.flatten.count c = line.count c := by
  have hhoist := count_hoist hc (Markers.ofLine line) (emphasise line)
  rw [count_emphasise hc] at hhoist
  rw [← hhoist, Recast.lines, List.flatten_append, List.count_append, List.flatten_singleton]
  exact congrArg _ ((count_declare hc _ _).trans
    ((count_close hc _ _ _).trans (count_separate hc _ _)))

end Count

/-! ### Steps that change nothing -/

section Idle

variable {m : Markers} {t : Text}

theorem hoist_eq_self (h : m.terminatorPrecedesComment = false) : hoist m t = ⟨none, t⟩ := by
  rw [hoist, h]
  cases Text.cut? [';'] t <;> rfl

theorem separate_eq_self (s : Scope) (h : ';' ∉ t) : separate s t = t := by
  unfold separate
  rw [Text.cut?_singleton_eq_none_iff.mpr h]
  cases s <;> rfl

theorem close_eq_self (s : Scope) (h : m.blockClose = none) : close m s t = t := by
  unfold close
  rw [h]
  cases s <;> rfl

theorem leave_eq_self (s : Scope) (h : m.blockClose = none) : s.leave m = s := by
  rw [Scope.leave, Scope.exits, h]
  simp

theorem declare_eq_self (h : m.declaresMessage = false) : declare m t = t := by
  rw [declare, h]
  cases Text.cutBare? Markers.messageWord t <;> rfl

end Idle

end Line

end SchemaDoc
