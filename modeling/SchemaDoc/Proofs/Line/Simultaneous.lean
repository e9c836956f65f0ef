import SchemaDoc.Proofs.Line.Keyword
import SchemaDoc.Proofs.Line.Sequence
import SchemaDoc.Proofs.Text.Patch
import Mathlib.Tactic.Tauto

/-!
# All edits at once

Recasting a line edits it step by step, and each step searches its place in the text that the steps
before have left. The outcome is the same as if all edits were made at once, at the offsets of the
markers in the line as it came in: `recast_eq_edits`.

`Line.Edits` holds the four offsets of such edits and `Edits.apply` makes them. Each step adds its
edit to those made before (`separate_patch`, `close_patch`, `declare_patch`), because the search it
makes finds the image of the marker. For the last step this needs that the edits before it are
neutral towards words (`Edits.Fits.neutral`).
-/

namespace SchemaDoc

/-- The offsets of the terminator and the comment when a comment behind a terminator is hoisted. -/
def Markers.hoist? (m : Markers) : Option (Nat × Nat) :=
  match m.terminator, m.comment with
  | some t, some c => if t < c then some (t, c) else none
  | _, _ => none

/-- Where a slash is put in behind the comment when it is not hoisted. -/
def Markers.slash? (m : Markers) : Option Nat :=
  if m.hoist?.isSome then none else m.comment.map (· + 2)

theorem Markers.hoist?_eq_some_iff {m : Markers} {t c : Nat} :
    m.hoist? = some (t, c) ↔ m.terminator = some t ∧ m.comment = some c ∧ t < c := by
  rw [Markers.hoist?]
  split
  · next t' c' ht hc =>
    rw [ht, hc]
    split
    · next hlt =>
      simp only [Option.some.injEq, Prod.mk.injEq]
      constructor
      · rintro ⟨rfl, rfl⟩
        exact ⟨rfl, rfl, hlt⟩
      · rintro ⟨rfl, rfl, -⟩
        exact ⟨rfl, rfl⟩
    · next hlt =>
      simp only [reduceCtorEq, Option.some.injEq, false_iff, not_and]
      rintro rfl rfl
      exact hlt
  · next h =>
    simp only [reduceCtorEq, false_iff]
    rintro ⟨ht, hc, -⟩
    exact h t c ht hc

theorem Markers.terminatorPrecedesComment_eq (m : Markers) :
    m.terminatorPrecedesComment = m.hoist?.isSome := by
  unfold Markers.terminatorPrecedesComment Markers.hoist?
  cases m.terminator with
  | none => rfl
  | some t =>
    cases m.comment with
    | none => rfl
    | some c =>
      dsimp only
      split <;> simp_all

namespace Line

/-- What stays on the line: all of it, or the text up to the terminator when a comment behind it is
hoisted. -/
def kept (m : Markers) (line : Text) : Text :=
  match m.hoist? with
  | some (t, _) => Text.slice 0 (t + 1) line
  | none => line

/-- Edits of a text, each at a byte offset of the text as it is. -/
structure Edits where
  /-- Where a slash is put in. -/
  slash : Option Nat := none
  /-- The character that a comma takes the place of. -/
  comma : Option Nat := none
  /-- The character behind which a terminator is put in. -/
  semicolon : Option Nat := none
  /-- Where the seven bytes of `message` are taken out and go as `struct` to the very start. -/
  message : Option Nat := none
  deriving DecidableEq, Repr

namespace Edits

/-- What the character `x` at offset `o` becomes. -/
def char (e : Edits) (o : Nat) (x : Char) : Text :=
  (if e.message.any fun start => decide (start ≤ o ∧ o < start + 7) then []
    else if e.comma = some o then [','] else [x]) ++
  (if e.semicolon = some o then [';'] else []) ++
  (if e.slash = some (o + x.utf8Size) then ['/'] else [])

/-- Makes all edits at once. -/
def apply (e : Edits) (t : Text) : Text :=
  (if e.message.isSome then Markers.structWord else []) ++ Text.patch e.char t

/-- The edits in scope `s` of a line with markers `m` of which so many bytes stay. -/
def ofMarkers (m : Markers) (s : Scope) (size : Nat) : Edits where
  slash := m.slash?
  comma := if s.isInside then m.terminator else none
  semicolon := if s.isInside then none else m.blockClose.filter fun b => decide (b < size)
  message := m.message.filter fun o => m.beforeComment o && decide (o < size)

/-- The edits are at places of `t` where they belong. -/
structure Fits (e : Edits) (t : Text) : Prop where
  /-- A slash is put in behind a slash. -/
  slash : ∀ o, e.slash = some o → ∃ u v, t = u ++ '/' :: v ∧ Text.byteSize u + 1 = o
  /-- A comma takes the place of a terminator. -/
  comma : ∀ o, e.comma = some o → ∃ u v, t = u ++ ';' :: v ∧ Text.byteSize u = o
  /-- A terminator is put in behind a closing brace. -/
  semicolon : ∀ o, e.semicolon = some o → ∃ u v, t = u ++ '}' :: v ∧ Text.byteSize u = o

section Fits

variable {e : Edits} {t u v : Text} {x : Char}

theorem Fits.slash_ne (h : e.Fits t) (ht : t = u ++ x :: v) (hx : x ≠ '/') :
    e.slash ≠ some (Text.byteSize u + x.utf8Size) := by
  intro hslash
  obtain ⟨u', v', ht', hsize⟩ := h.slash _ hslash
  -- the slash before the offset is the character that ends there
  have hcut : (u ++ [x]) ++ v = (u' ++ ['/']) ++ v' := by simpa using ht.symm.trans ht'
  have heq := (Text.append_inj_of_byteSize hcut
    (by simp [hsize, show ('/' : Char).utf8Size = 1 from rfl])).1
  have hlast := congrArg List.getLast? heq
  exact hx (by simpa using hlast)

theorem Fits.comma_ne (h : e.Fits t) (ht : t = u ++ x :: v) (hx : x ≠ ';') :
    e.comma ≠ some (Text.byteSize u) := by
  intro hcomma
  obtain ⟨u', v', ht', hsize⟩ := h.comma _ hcomma
  exact hx (Text.char_inj_of_byteSize (ht.symm.trans ht') hsize.symm)

theorem Fits.semicolon_ne (h : e.Fits t) (ht : t = u ++ x :: v) (hx : x ≠ '}') :
    e.semicolon ≠ some (Text.byteSize u) := by
  intro hsemicolon
  obtain ⟨u', v', ht', hsize⟩ := h.semicolon _ hsemicolon
  exact hx (Text.char_inj_of_byteSize (ht.symm.trans ht') hsize.symm)

/-- **The edits before the last are neutral towards words**: they touch punctuation only. -/
theorem Fits.neutral (h : e.Fits t) (hmessage : e.message = none) : Text.Neutral e.char 0 t where
  keeps u x v ht hx := by
    have hslash := h.slash_ne ht (by rintro rfl; simp [isWordChar_slash] at hx)
    have hcomma := h.comma_ne ht (by rintro rfl; exact absurd hx (by decide))
    have hsemicolon := h.semicolon_ne ht (by rintro rfl; exact absurd hx (by decide))
    simp [char, hmessage, hslash, hcomma, hsemicolon]
  separates u x v ht hx := by
    rw [Nat.zero_add, char, hmessage]
    simp only [Option.any_none, Bool.false_eq_true, if_false]
    constructor
    · split <;> simp
    · intro y hy
      -- the edits bring in punctuation only
      have hy' : y = ',' ∨ y = x ∨ y = ';' ∨ y = '/' := by
        split at hy <;> split at hy <;> split at hy <;> simp_all <;> tauto
      rcases hy' with rfl | rfl | rfl | rfl
      · decide
      · exact hx
      · decide
      · decide

end Fits

end Edits

/-! ### Step by step -/

section Steps

variable {t : Text} {o : Option Nat}

/-- The slash put in behind the comment moves no other punctuation. -/
private theorem cut?_patch_slash (h : ({ slash := o } : Edits).Fits t) {y : Char} (hy : y ≠ '/') :
    Text.cut? [y] (Text.patch ({ slash := o } : Edits).char t) =
      (Text.cut? [y] t).map fun (u, v) =>
        (Text.patchFrom ({ slash := o } : Edits).char 0 u,
          Text.patchFrom ({ slash := o } : Edits).char (0 + Text.byteSize u + y.utf8Size) v) := by
  refine Text.cut?_patchFrom (fun u v ht => ?_) fun u x v ht hx hmem => ?_
  · have hslash := h.slash_ne ht hy
    rw [Nat.zero_add]
    simp_all [Edits.char]
  · have hmem' : y = x ∨ y = '/' := by
      simp only [Edits.char] at hmem
      split at hmem <;> simp_all
    rcases hmem' with rfl | rfl
    · exact hx rfl
    · exact hy rfl

theorem Edits.Fits.find?_comma (h : ({ slash := o } : Edits).Fits t) :
    ({ slash := o, comma := Text.find? [';'] t } : Edits).Fits t := by
  refine ⟨h.slash, fun c hc => ?_, by simp⟩
  obtain ⟨⟨u, v⟩, hcut, rfl⟩ := Option.map_eq_some_iff.mp hc
  exact ⟨u, v, (Text.cut?_singleton_eq_some_iff.mp hcut).1, rfl⟩

theorem Edits.Fits.find?_semicolon (h : ({ slash := o } : Edits).Fits t) :
    ({ slash := o, semicolon := Text.find? ['}'] t } : Edits).Fits t := by
  refine ⟨h.slash, by simp, fun c hc => ?_⟩
  obtain ⟨⟨u, v⟩, hcut, rfl⟩ := Option.map_eq_some_iff.mp hc
  exact ⟨u, v, (Text.cut?_singleton_eq_some_iff.mp hcut).1, rfl⟩

theorem separate_patch (h : ({ slash := o } : Edits).Fits t) :
    separate .enumBody (Text.patch ({ slash := o } : Edits).char t) =
      Text.patch ({ slash := o, comma := Text.find? [';'] t } : Edits).char t := by
  have hcut := cut?_patch_slash h (y := ';') (by decide)
  unfold separate Text.find?
  rw [hcut]
  cases hcut' : Text.cut? [';'] t with
  | none => rfl
  | some parts =>
    obtain ⟨u, v⟩ := parts
    obtain ⟨rfl, -⟩ := Text.cut?_singleton_eq_some_iff.mp hcut'
    have hslash : o ≠ some (Text.byteSize u + Char.utf8Size ';') := h.slash_ne rfl (by decide)
    have hpatch := Text.patchFrom_append_cons (o := 0) (u := u) (v := v) (y := ';')
      (f := ({ slash := o } : Edits).char)
      (g := ({ slash := o, comma := some (Text.byteSize u) } : Edits).char) fun i x hi => by
        rw [Nat.zero_add] at hi
        simp [Edits.char, hi.symm]
    refine Eq.trans ?_ hpatch.symm
    simp [Edits.char, hslash]

theorem close_patch (h : ({ slash := o } : Edits).Fits t) {m : Markers}
    (hm : Text.find? ['}'] t = m.blockClose.filter fun b => decide (b < Text.byteSize t)) :
    close m .outside (Text.patch ({ slash := o } : Edits).char t) =
      Text.patch ({ slash := o, semicolon := Text.find? ['}'] t } : Edits).char t := by
  have hcut := cut?_patch_slash h (y := '}') (by decide)
  unfold close
  rw [hcut]
  cases hcut' : Text.cut? ['}'] t with
  | none =>
    rw [Text.find?, hcut']
    cases m.blockClose <;> rfl
  | some parts =>
    obtain ⟨u, v⟩ := parts
    obtain ⟨rfl, -⟩ := Text.cut?_singleton_eq_some_iff.mp hcut'
    have hfind : Text.find? ['}'] (u ++ '}' :: v) = some (Text.byteSize u) := by
      rw [Text.find?, hcut']
      rfl
    have hslash : o ≠ some (Text.byteSize u + Char.utf8Size '}') := h.slash_ne rfl (by decide)
    have hpatch := Text.patchFrom_append_cons (o := 0) (u := u) (v := v) (y := '}')
      (f := ({ slash := o } : Edits).char)
      (g := ({ slash := o, semicolon := some (Text.byteSize u) } : Edits).char) fun i x hi => by
        rw [Nat.zero_add] at hi
        simp [Edits.char, hi.symm]
    -- a brace in what stays is a brace of the line
    rw [hfind, eq_comm, Option.filter_eq_some_iff] at hm
    rw [hfind, hm.1]
    refine Eq.trans ?_ hpatch.symm
    simp [Edits.char, hslash]

/-- The bytes of `message` are taken out whole, and nothing is put in between them. -/
private theorem patchFrom_messageWord {e : Edits} {u v : Text}
    (h : e.Fits (u ++ Markers.messageWord ++ v)) :
    Text.patchFrom ({ e with message := some (Text.byteSize u) } : Edits).char (Text.byteSize u)
      Markers.messageWord = [] := by
  rw [List.eq_nil_iff_forall_not_mem]
  intro y hy
  obtain ⟨front, x, back, hword, hy⟩ := Text.exists_of_mem_patchFrom hy
  have hsplit : u ++ Markers.messageWord ++ v = (u ++ front) ++ x :: (back ++ v) := by simp [hword]
  have hx : x ∈ Markers.messageWord := by simp [hword]
  have hslash := h.slash_ne hsplit (by rintro rfl; exact absurd hx (by decide))
  have hsemicolon := h.semicolon_ne hsplit (by rintro rfl; exact absurd hx (by decide))
  have hsize : Text.byteSize front < 7 := by
    have hseven := congrArg Text.byteSize hword
    have := x.utf8Size_pos
    simp only [Text.byteSize_append, Text.byteSize_cons,
      show Text.byteSize Markers.messageWord = 7 from rfl] at hseven
    omega
  rw [Text.byteSize_append] at hslash hsemicolon
  simp [Edits.char, hslash, hsemicolon, hsize] at hy

/-- What taking out `message` adds to the edits before it. -/
private theorem apply_message {e : Edits} {u v : Text}
    (h : e.Fits (u ++ Markers.messageWord ++ v)) (he : e.message = none) :
    ({ e with message := some (Text.byteSize u) } : Edits).apply (u ++ Markers.messageWord ++ v) =
      Markers.structWord ++ Text.patchFrom e.char 0 u ++
        Text.patchFrom e.char (Text.byteSize u + Text.byteSize Markers.messageWord) v := by
  have hu : Text.patchFrom ({ e with message := some (Text.byteSize u) } : Edits).char 0 u =
      Text.patchFrom e.char 0 u := by
    refine Text.patchFrom_congr fun i x _ hi => ?_
    have := x.utf8Size_pos
    simp [Edits.char, he, show ¬ Text.byteSize u ≤ i by omega]
  have hv : Text.patchFrom ({ e with message := some (Text.byteSize u) } : Edits).char
      (Text.byteSize u + Text.byteSize Markers.messageWord) v =
      Text.patchFrom e.char (Text.byteSize u + Text.byteSize Markers.messageWord) v := by
    refine Text.patchFrom_congr fun i x hi _ => ?_
    rw [show Text.byteSize Markers.messageWord = 7 from rfl] at hi
    simp [Edits.char, he, show ¬ i < Text.byteSize u + 7 by omega]
  rw [Edits.apply, Text.patch, List.append_assoc, Text.patchFrom_append, Text.patchFrom_append,
    Nat.zero_add, patchFrom_messageWord h, hu, hv]
  simp

theorem declare_patch {e : Edits} (h : e.Fits t) (he : e.message = none) {m : Markers}
    (hm : Text.findBare? Markers.messageWord t =
      m.message.filter fun o => decide (o < Text.byteSize t)) :
    declare m (Text.patch e.char t) =
      ({ e with message := m.message.filter fun o =>
        m.beforeComment o && decide (o < Text.byteSize t) } : Edits).apply t := by
  have hsame : ({ e with message := none } : Edits) = e := by rw [← he]
  have hcut := Text.cutBare?_patchFrom Markers.isWord_messageWord (h.neutral he)
  rw [Text.findBare?] at hm
  unfold declare
  rw [Text.patch, hcut]
  cases hcut' : Text.cutBare? Markers.messageWord t with
  | none =>
    have hnone : (m.message.filter fun o => m.beforeComment o && decide (o < Text.byteSize t)) =
        none := by
      rw [hcut', Option.map_none, eq_comm, Option.filter_eq_none_iff] at hm
      rw [Option.filter_eq_none_iff]
      intro o ho
      have := hm o ho
      simp_all
    rw [hnone, hsame, Edits.apply, he]
    rfl
  | some parts =>
    obtain ⟨u, v⟩ := parts
    obtain ⟨rfl, -⟩ := Text.eq_append_of_cutBare? Markers.isWord_messageWord hcut'
    rw [hcut', Option.map_some, eq_comm, Option.filter_eq_some_iff] at hm
    obtain ⟨hm, hlt⟩ := hm
    cases hbefore : m.beforeComment (Text.byteSize u) with
    | false =>
      -- the word stands in the comment and is left there
      have hnone : (m.message.filter fun o => m.beforeComment o &&
          decide (o < Text.byteSize (u ++ Markers.messageWord ++ v))) = none := by
        simp [hm, hbefore]
      rw [hnone, hsame, Edits.apply, he]
      simp [Markers.declaresMessage, hm, hbefore, Text.patch]
    | true =>
      have hsome : (m.message.filter fun o => m.beforeComment o &&
          decide (o < Text.byteSize (u ++ Markers.messageWord ++ v))) =
          some (Text.byteSize u) := by
        rw [hm, Option.filter_some, hbefore, hlt]
        rfl
      rw [hsome, apply_message h he]
      simp [Markers.declaresMessage, hm, hbefore]

end Steps

/-! ### The comment -/

section Comment

variable {line : Text}

/-- A line with a comment behind its first terminator. -/
theorem exists_of_hoist?_eq_some {t c : Nat} (h : (Markers.ofLine line).hoist? = some (t, c)) :
    ∃ u gap tail, line = u ++ ';' :: (gap ++ '/' :: '/' :: tail) ∧ ';' ∉ u ∧
      Text.byteSize u = t ∧ Text.byteSize u + 1 + Text.byteSize gap = c ∧
      Text.cut? Markers.commentOpen line = some (u ++ ';' :: gap, tail) := by
  obtain ⟨ht, hc, hlt⟩ := Markers.hoist?_eq_some_iff.mp h
  obtain ⟨⟨u, v⟩, hcut, rfl⟩ := Option.map_eq_some_iff.mp ht
  obtain ⟨⟨head, tail⟩, hcomment, rfl⟩ := Option.map_eq_some_iff.mp hc
  obtain ⟨hline, hu⟩ := Text.cut?_singleton_eq_some_iff.mp hcut
  have hline' := Text.eq_append_of_cut? hcomment
  rw [List.append_assoc] at hline'
  obtain ⟨gap, rfl, rfl⟩ := Text.exists_of_append_eq (hline.symm.trans hline') hlt
  exact ⟨u, gap, tail, hline, hu, rfl, by simp [Char.utf8Size]; omega, hcomment⟩

/-- What stays of a line whose comment is hoisted. -/
theorem slice_of_hoisted {u w line : Text} (h : line = u ++ ';' :: w) :
    Text.slice 0 (Text.byteSize u + 1) line = u ++ [';'] := by
  have hone : Text.byteSize (u ++ [';']) = Text.byteSize u + 1 := by simp [Char.utf8Size]
  have hline : line = (u ++ [';']) ++ w := by simp [h]
  rw [← hone, hline]
  exact Text.slice_append_left _ _

/-- A hoisted comment takes with it all that stands behind the terminator. -/
theorem hoist_emphasise_of_eq_some {t c : Nat} (h : (Markers.ofLine line).hoist? = some (t, c)) :
    hoist (Markers.ofLine line) (emphasise line) =
      ⟨some (Text.slice (t + 1) c line ++ Markers.docOpen ++
        Text.slice (c + 2) (Text.byteSize line) line), Text.slice 0 (t + 1) line⟩ := by
  obtain ⟨u, gap, tail, hline, hu, rfl, rfl, hcut⟩ := exists_of_hoist?_eq_some h
  have hgap : Text.slice (Text.byteSize u + 1) (Text.byteSize u + 1 + Text.byteSize gap) line =
      gap := by
    have hone : Text.byteSize (u ++ [';']) = Text.byteSize u + 1 := by simp [Char.utf8Size]
    have hline' : line = (u ++ [';']) ++ (gap ++ '/' :: '/' :: tail) := by simp [hline]
    rw [← hone, hline']
    exact Text.slice_append _ _ _
  have htail : Text.slice (Text.byteSize u + 1 + Text.byteSize gap + 2) (Text.byteSize line) line =
      tail := by
    have hline' : line = (u ++ [';'] ++ gap ++ ['/', '/']) ++ tail := by simp [hline]
    have hsize : Text.byteSize (u ++ [';'] ++ gap ++ ['/', '/']) =
        Text.byteSize u + 1 + Text.byteSize gap + 2 := by
      simp [Char.utf8Size]
      omega
    rw [← hsize, hline']
    exact Text.slice_append_right _ _
  have htrue : (Markers.ofLine line).terminatorPrecedesComment = true := by
    rw [Markers.terminatorPrecedesComment_eq, h]
    rfl
  have hcut' : Text.cut? [';'] (emphasise line) = some (u, gap ++ Markers.docOpen ++ tail) := by
    rw [Text.cut?_singleton_eq_some_iff, emphasise, hcut]
    exact ⟨by simp, hu⟩
  rw [hoist, hcut', htrue, slice_of_hoisted hline, hgap, htail]
  rfl

/-- The edit that turns the comment into a documentation comment. -/
theorem emphasise_eq_patch (line : Text) :
    emphasise line =
      Text.patch ({ slash := (Markers.ofLine line).comment.map (· + 2) } : Edits).char line := by
  have hcomment : (Markers.ofLine line).comment = Text.find? Markers.commentOpen line := rfl
  rw [hcomment, Text.find?, emphasise, Text.patch]
  cases h : Text.cut? Markers.commentOpen line with
  | none => exact (Text.patchFrom_eq_self fun i x _ _ => by simp [Edits.char]).symm
  | some parts =>
    obtain ⟨head, tail⟩ := parts
    have hline : line = (head ++ ['/']) ++ '/' :: tail := by
      rw [Text.eq_append_of_cut? h]
      simp [Markers.commentOpen]
    have hsize : Text.byteSize (head ++ ['/']) = Text.byteSize head + 1 := by simp [Char.utf8Size]
    -- the slash is put in at the second slash of the comment and nowhere else
    rw [hline, Text.patchFrom_append, Text.patchFrom_cons, Text.patchFrom_eq_self,
      Text.patchFrom_eq_self]
    · simp [Edits.char, Markers.docOpen, Char.utf8Size]
    · intro i x hi _
      have := x.utf8Size_pos
      rw [hsize] at hi
      simp [Edits.char]
      simp [Char.utf8Size] at hi
      omega
    · intro i x _ hi
      rw [hsize] at hi
      simp [Edits.char]
      omega

theorem fits_slash (line : Text) :
    ({ slash := (Markers.ofLine line).comment.map (· + 2) } : Edits).Fits line := by
  refine ⟨fun o ho => ?_, by simp, by simp⟩
  obtain ⟨c, hc, rfl⟩ := Option.map_eq_some_iff.mp ho
  obtain ⟨⟨head, tail⟩, hcut, rfl⟩ := Option.map_eq_some_iff.mp hc
  refine ⟨head ++ ['/'], tail, ?_, by simp [Char.utf8Size]⟩
  rw [Text.eq_append_of_cut? hcut]
  simp [Markers.commentOpen]

end Comment

/-! ### What stays on the line -/

section Kept

variable {line : Text}

/-- A hoisted comment leaves the text up to the terminator. -/
theorem kept_cases (line : Text) :
    ((Markers.ofLine line).hoist? = none ∧ kept (Markers.ofLine line) line = line) ∨
    ∃ t c u w, (Markers.ofLine line).hoist? = some (t, c) ∧ line = u ++ ';' :: w ∧ ';' ∉ u ∧
      kept (Markers.ofLine line) line = u ++ [';'] := by
  unfold kept
  cases h : (Markers.ofLine line).hoist? with
  | none => exact Or.inl ⟨rfl, rfl⟩
  | some parts =>
    obtain ⟨t, c⟩ := parts
    obtain ⟨u, gap, tail, hline, hu, rfl, -, -⟩ := exists_of_hoist?_eq_some h
    exact Or.inr ⟨_, c, u, _, rfl, hline, hu, slice_of_hoisted hline⟩

/-- A search that breaks up at the terminator finds in what stays what it finds there in the
line. -/
private theorem map_byteSize_kept {search : Text → Option (Text × Text)}
    (hsplit : ∀ u v, search (u ++ ';' :: v) =
      match search u with
      | some (head, tail) => some (head, tail ++ ';' :: v)
      | none => (search v).map fun (head, tail) => (u ++ ';' :: head, tail))
    (hnil : search [] = none)
    (hlt : ∀ {t head tail}, search t = some (head, tail) → Text.byteSize head < Text.byteSize t)
    (line : Text) :
    ((search (kept (Markers.ofLine line) line)).map fun (head, _) => Text.byteSize head) =
      ((search line).map fun (head, _) => Text.byteSize head).filter
        fun o => decide (o < Text.byteSize (kept (Markers.ofLine line) line)) := by
  obtain ⟨-, hkept⟩ | ⟨t, c, u, w, -, hline, -, hkept⟩ := kept_cases line
  · rw [hkept]
    cases hsearch : search line with
    | none => rfl
    | some parts =>
      have hlt' : Text.byteSize parts.1 < Text.byteSize line := hlt hsearch
      simp [Option.filter_some, hlt']
  · rw [hkept, hline, hsplit, hsplit, hnil]
    cases hu : search u with
    | some parts =>
      have hlt' : Text.byteSize parts.1 < Text.byteSize (u ++ [';']) := by
        rw [Text.byteSize_append]
        exact Nat.lt_add_right _ (hlt hu)
      simp only [Option.map_some, Option.filter_some, hlt', decide_true, if_true]
    | none =>
      -- what is found behind the terminator begins too late
      cases search w with
      | none => rfl
      | some parts => exact (Option.filter_some_neg (by simp [← Nat.add_assoc])).symm

private theorem byteSize_lt {word t head tail : Text} (hne : word ≠ [])
    (h : t = head ++ word ++ tail) : Text.byteSize head < Text.byteSize t := by
  have := Text.byteSize_pos hne
  rw [h, Text.byteSize_append, Text.byteSize_append]
  omega

theorem find?_blockClose_kept (line : Text) :
    Text.find? ['}'] (kept (Markers.ofLine line) line) =
      (Markers.ofLine line).blockClose.filter
        fun o => decide (o < Text.byteSize (kept (Markers.ofLine line) line)) :=
  map_byteSize_kept (Text.cut?_append_cons (by decide) (by decide)) rfl
    (fun h => byteSize_lt (by decide) (Text.eq_append_of_cut? h)) line

theorem findBare?_messageWord_kept (line : Text) :
    Text.findBare? Markers.messageWord (kept (Markers.ofLine line) line) =
      (Markers.ofLine line).message.filter
        fun o => decide (o < Text.byteSize (kept (Markers.ofLine line) line)) :=
  have hw := Markers.isWord_messageWord
  map_byteSize_kept (Text.cutBare?_append_cons hw (by decide)) rfl
    (fun h => byteSize_lt hw.ne_nil (Text.eq_append_of_cutBare? hw h).1) line

/-- The terminator always stays on the line. -/
theorem find?_terminator_kept (line : Text) :
    Text.find? [';'] (kept (Markers.ofLine line) line) = (Markers.ofLine line).terminator := by
  obtain ⟨-, hkept⟩ | ⟨t, c, u, w, -, hline, hu, hkept⟩ := kept_cases line
  · rw [hkept]
    rfl
  · have hfind (v : Text) : Text.find? [';'] (u ++ ';' :: v) = some (Text.byteSize u) := by
      rw [Text.find?, Text.cut?_singleton_eq_some_iff.mpr ⟨rfl, hu⟩]
      rfl
    have hterminator : (Markers.ofLine line).terminator = Text.find? [';'] line := rfl
    rw [hkept, hterminator, hline, hfind, hfind]

theorem fits_kept (line : Text) :
    ({ slash := (Markers.ofLine line).slash? } : Edits).Fits (kept (Markers.ofLine line) line) := by
  obtain ⟨hhoist, hkept⟩ | ⟨t, c, u, w, hhoist, -, -, -⟩ := kept_cases line
  · rw [hkept, Markers.slash?, hhoist]
    exact fits_slash line
  · rw [Markers.slash?, hhoist]
    exact ⟨by simp, by simp, by simp⟩

/-- **The first two steps** move a comment behind the terminator away, or put in a slash. -/
theorem hoist_emphasise (line : Text) :
    hoist (Markers.ofLine line) (emphasise line) =
      ⟨(Markers.ofLine line).hoist?.map fun (t, c) => Text.slice (t + 1) c line ++
          Markers.docOpen ++ Text.slice (c + 2) (Text.byteSize line) line,
        Text.patch ({ slash := (Markers.ofLine line).slash? } : Edits).char
          (kept (Markers.ofLine line) line)⟩ := by
  cases h : (Markers.ofLine line).hoist? with
  | none =>
    have hfalse : (Markers.ofLine line).terminatorPrecedesComment = false := by
      rw [Markers.terminatorPrecedesComment_eq, h]
      rfl
    rw [hoist_eq_self hfalse, emphasise_eq_patch, Markers.slash?, kept, h]
    rfl
  | some parts =>
    have hself (t : Text) : Text.patch ({ slash := none } : Edits).char t = t :=
      Text.patchFrom_eq_self fun i x _ _ => by simp [Edits.char]
    rw [hoist_emphasise_of_eq_some h, Markers.slash?, kept, h]
    exact congrArg _ (hself _).symm

end Kept

/-- **What stays on the line** comes out with the edits of the scope in which the line is edited. -/
theorem line_recast (s : Scope) (line : Text) :
    let m := Markers.ofLine line
    (recast s line).1.line =
      (Edits.ofMarkers m (s.enter m) (Text.byteSize (kept m line))).apply (kept m line) := by
  intro m
  have hrecast : recast s line = edit m (s.enter m) (emphasise line) := rfl
  have hfits := fits_kept line
  have hmessage := findBare?_messageWord_kept line
  rw [hrecast, edit, hoist_emphasise]
  -- of the separator and the closing brace each scope edits one only
  cases s.enter m with
  | enumBody =>
    have hclose (t : Text) : close m .enumBody t = t := rfl
    dsimp only
    rw [hclose, separate_patch hfits, declare_patch hfits.find?_comma rfl hmessage,
      find?_terminator_kept]
    rfl
  | outside =>
    have hseparate (t : Text) : separate .outside t = t := rfl
    have hbrace := find?_blockClose_kept line
    dsimp only
    rw [hseparate, close_patch hfits hbrace, declare_patch hfits.find?_semicolon rfl hmessage,
      hbrace]
    rfl

/-- **All edits at once.** The markers are where they first stand in the line as it came in, and
recasting the line makes every edit at the offset of its marker: a comment behind the terminator
goes to a line of its own, and what stays is changed at these offsets and nowhere else. The next
line is inside an enum exactly when this one was edited inside and has no closing brace. -/
theorem recast_eq_edits (s : Scope) (line : Text) :
    let m := Markers.ofLine line
    let e := s.enter m
    m.FirstIn line ∧
    (recast s line).1.hoisted = (m.hoist?.map fun (t, c) => Text.slice (t + 1) c line ++
      Markers.docOpen ++ Text.slice (c + 2) (Text.byteSize line) line) ∧
    (recast s line).1.line =
      (Edits.ofMarkers m e (Text.byteSize (kept m line))).apply (kept m line) ∧
    ((recast s line).2.isInside = true ↔ e.isInside = true ∧ m.blockClose = none) := by
  intro m e
  have hrecast : recast s line = edit m e (emphasise line) := rfl
  have hhoisted := congrArg Recast.hoisted (hoist_emphasise line)
  exact ⟨Markers.firstIn_ofLine line, hrecast ▸ hhoisted, line_recast s line,
    Scope.isInside_leave_iff⟩

end Line

end SchemaDoc
