import SchemaDoc.Proofs.Line.Code
import Mathlib.Order.Bounds.Basic

/-!
# Where a keyword stands

The searches are exact in terms of byte offsets. A plain search gives the least offset at which the
word occurs, `find?_eq_some_iff_isLeast`. A search for a bare word gives the least offset at which
the word occurs and no word character stands beside it, `findBare?_eq_some_iff_isLeast`: least among
all occurrences, although the search looks at none that overlaps a rejected one. So the markers of a
line are where it says, `firstIn_ofLine`.

What a line opens is read off the offsets of its markers. It comes to the same as looking for the
keyword in what stands before the first comment, taken on its own: `keyword_search_exact`.
-/

namespace SchemaDoc

namespace Text

variable {word t : Text} {o : Nat}

/-- The word begins at a byte offset of the text. -/
def OccursAt (word t : Text) (o : Nat) : Prop :=
  ∃ head tail, t = head ++ word ++ tail ∧ byteSize head = o

/-- The word begins at a byte offset of the text, and neither the character before it nor the one
behind it is a word character. -/
def BareAt (word t : Text) (o : Nat) : Prop :=
  ∃ head tail, t = head ++ word ++ tail ∧ byteSize head = o ∧
    (∀ c ∈ head.getLast?, isWordChar c = false) ∧ ∀ c ∈ tail.head?, isWordChar c = false

theorem standsFree_eq_true_iff {prev : Option Char} {rest : Text} :
    standsFree prev rest = true ↔
      (∀ c ∈ prev, isWordChar c = false) ∧ ∀ c ∈ rest.head?, isWordChar c = false := by
  cases prev <;> cases rest <;> simp [standsFree]

theorem bareAt_iff_standsFree : BareAt word t o ↔
    ∃ head tail, t = head ++ word ++ tail ∧ byteSize head = o ∧
      standsFree head.getLast? tail = true := by
  simp only [BareAt, standsFree_eq_true_iff]

/-! ### Plain occurrences -/

/-- No occurrence begins before the one that is found. -/
theorem byteSize_le_of_cut? {front back head tail : Text}
    (h : cut? word (front ++ word ++ back) = some (head, tail)) :
    byteSize head ≤ byteSize front := by
  induction front generalizing head with
  | nil =>
    cases word with
    | nil => cases back <;> simp_all [cut?, after?]
    | cons w word =>
      have hafter : after? (w :: word) (w :: (word ++ back)) = some back :=
        after?_append (w :: word) back
      obtain ⟨rfl, -⟩ : [] = head ∧ back = tail := by simpa [cut?, hafter] using h
      simp
  | cons c front ih =>
    rw [List.cons_append, List.cons_append, cut?] at h
    split at h
    · obtain ⟨rfl, -⟩ : [] = head ∧ _ = tail := by simpa using h
      simp
    · obtain ⟨⟨first, rest⟩, hcut, heq⟩ := Option.map_eq_some_iff.mp h
      obtain ⟨rfl, rfl⟩ : c :: first = head ∧ rest = tail := by simpa using heq
      have hle := ih hcut
      simp only [byteSize_cons]
      omega

/-- What stands before the occurrence that is found ends at the least offset of an occurrence. -/
theorem isLeast_of_cut? {head tail : Text} (h : cut? word t = some (head, tail)) :
    IsLeast {o | OccursAt word t o} (byteSize head) := by
  refine ⟨⟨head, tail, eq_append_of_cut? h, rfl⟩, ?_⟩
  rintro o ⟨front, back, rfl, rfl⟩
  exact byteSize_le_of_cut? h

/-- A search fails where the word does not occur. -/
theorem cut?_eq_none_iff_not_occursAt : cut? word t = none ↔ ∀ o, ¬ OccursAt word t o := by
  rw [cut?_eq_none_iff]
  constructor
  · rintro h o ⟨head, tail, rfl, -⟩
    exact h ⟨head, tail, rfl⟩
  · rintro h ⟨head, tail, rfl⟩
    exact h _ ⟨head, tail, rfl, rfl⟩

/-- **The offset that is found** is the least one of all occurrences. -/
theorem find?_eq_some_iff_isLeast : find? word t = some o ↔ IsLeast {o | OccursAt word t o} o := by
  constructor
  · intro h
    obtain ⟨⟨head, tail⟩, hcut, rfl⟩ := Option.map_eq_some_iff.mp h
    exact isLeast_of_cut? hcut
  · intro h
    cases hcut : cut? word t with
    | none => exact absurd h.1 (cut?_eq_none_iff_not_occursAt.mp hcut o)
    | some parts =>
      rw [find?, hcut, ← (isLeast_of_cut? hcut).unique h]
      rfl

/-! ### Bare occurrences -/

/-- No bare occurrence begins before the one that is found. -/
theorem byteSize_le_of_cutBare? (hw : IsWord word) {head tail : Text}
    (h : cutBare? word t = some (head, tail)) (ho : BareAt word t o) : byteSize head ≤ o := by
  obtain ⟨front, back, rfl, rfl, hfree⟩ := bareAt_iff_standsFree.mp ho
  rw [cutBare?_append_word hw hfree] at h
  -- the search ends at this occurrence unless it has found one in `front`
  cases hfront : cutBare? word front with
  | none =>
    obtain ⟨rfl, -⟩ : front = head ∧ back = tail := by simpa [hfront] using h
    exact Nat.le_refl _
  | some parts =>
    obtain ⟨first, rest⟩ := parts
    obtain ⟨rfl, -⟩ : first = head ∧ _ = tail := by simpa [hfront] using h
    rw [(eq_append_of_cutBare? hw hfront).1, byteSize_append, byteSize_append]
    omega

theorem isLeast_of_cutBare? (hw : IsWord word) {head tail : Text}
    (h : cutBare? word t = some (head, tail)) :
    IsLeast {o | BareAt word t o} (byteSize head) := by
  obtain ⟨htext, hfree⟩ := eq_append_of_cutBare? hw h
  exact ⟨bareAt_iff_standsFree.mpr ⟨head, tail, htext, rfl, hfree⟩,
    fun o ho => byteSize_le_of_cutBare? hw h ho⟩

/-- A search for a bare word fails where there is none. -/
theorem cutBare?_eq_none_iff_not_bareAt (hw : IsWord word) :
    cutBare? word t = none ↔ ∀ o, ¬ BareAt word t o := by
  rw [cutBare?_eq_none_iff_not_hasBare hw]
  constructor
  · intro h o ho
    obtain ⟨head, tail, htext, -, hfree⟩ := bareAt_iff_standsFree.mp ho
    exact h ⟨head, tail, htext, hfree⟩
  · rintro h ⟨head, tail, htext, hfree⟩
    exact h _ (bareAt_iff_standsFree.mpr ⟨head, tail, htext, rfl, hfree⟩)

theorem isSome_cutBare?_iff (hw : IsWord word) :
    (cutBare? word t).isSome = true ↔ ∃ o, BareAt word t o := by
  rw [Option.isSome_iff_ne_none, Ne, cutBare?_eq_none_iff_not_bareAt hw, not_forall_not]

/-- **The offset that is found** is the least one of all bare occurrences. -/
theorem findBare?_eq_some_iff_isLeast (hw : IsWord word) :
    findBare? word t = some o ↔ IsLeast {o | BareAt word t o} o := by
  constructor
  · intro h
    obtain ⟨⟨head, tail⟩, hcut, rfl⟩ := Option.map_eq_some_iff.mp h
    exact isLeast_of_cutBare? hw hcut
  · intro h
    obtain ⟨⟨head, tail⟩, hcut⟩ :=
      Option.isSome_iff_exists.mp ((isSome_cutBare?_iff hw).mpr ⟨o, h.1⟩)
    rw [findBare?, hcut, ← (isLeast_of_cutBare? hw hcut).unique h]
    rfl

end Text

namespace Markers

open Text (BareAt OccursAt)

/-- Each marker is at the least offset at which it stands in the line. So there is none where it
does not stand at all. -/
structure FirstIn (line : Text) (m : Markers) : Prop where
  /-- The comment. -/
  comment : ∀ o, m.comment = some o ↔ IsLeast {o | OccursAt commentOpen line o} o
  /-- The bare word `enum`. -/
  enum : ∀ o, m.enum = some o ↔ IsLeast {o | BareAt enumWord line o} o
  /-- The bare word `message`. -/
  message : ∀ o, m.message = some o ↔ IsLeast {o | BareAt messageWord line o} o
  /-- The terminator. -/
  terminator : ∀ o, m.terminator = some o ↔ IsLeast {o | OccursAt [';'] line o} o
  /-- The closing brace. -/
  blockClose : ∀ o, m.blockClose = some o ↔ IsLeast {o | OccursAt ['}'] line o} o

theorem firstIn_ofLine (line : Text) : (ofLine line).FirstIn line where
  comment _ := Text.find?_eq_some_iff_isLeast
  enum _ := Text.findBare?_eq_some_iff_isLeast isWord_enumWord
  message _ := Text.findBare?_eq_some_iff_isLeast isWord_messageWord
  terminator _ := Text.find?_eq_some_iff_isLeast
  blockClose _ := Text.find?_eq_some_iff_isLeast

/-- **The search for keywords is exact.** For a word of word characters, the offset that is found is
the least one at which the word occurs, overlapping occurrences included, with no word character
before or behind it, and none is found only where there is none. The code of a line is what stands
before the first comment, or all of it where there is no comment, and the line opens an enum or a
message if and only if its code, taken on its own, has the bare keyword. -/
theorem keyword_search_exact {word : Text} (hw : Text.IsWord word) (t : Text) :
    (∀ o, Text.findBare? word t = some o ↔ IsLeast {o | BareAt word t o} o) ∧
    (Text.findBare? word t = none ↔ ¬ ∃ o, BareAt word t o) ∧
    ∀ line,
      ((Line.code line = line ∧ ¬ ∃ o, OccursAt commentOpen line o) ∨
        (∃ tail, line = Line.code line ++ commentOpen ++ tail) ∧
          IsLeast {o | OccursAt commentOpen line o} (Text.byteSize (Line.code line))) ∧
      ((ofLine line).entersEnum = true ↔ ∃ o, BareAt enumWord (Line.code line) o) ∧
      ((ofLine line).declaresMessage = true ↔ ∃ o, BareAt messageWord (Line.code line) o) := by
  refine ⟨fun o => Text.findBare?_eq_some_iff_isLeast hw, ?_, fun line => ⟨?_, ?_, ?_⟩⟩
  · rw [Text.findBare?, Option.map_eq_none_iff, Text.cutBare?_eq_none_iff_not_bareAt hw, not_exists]
  · cases hcut : Text.cut? commentOpen line with
    | none =>
      refine Or.inl ⟨by rw [Line.code, hcut], ?_⟩
      rw [not_exists]
      exact Text.cut?_eq_none_iff_not_occursAt.mp hcut
    | some parts =>
      rw [Line.code_of_cut? hcut]
      exact Or.inr ⟨⟨_, Text.eq_append_of_cut? hcut⟩, Text.isLeast_of_cut? hcut⟩
  · rw [Line.entersEnum_ofLine, Text.isSome_cutBare?_iff isWord_enumWord]
  · rw [Line.declaresMessage_ofLine, Text.isSome_cutBare?_iff isWord_messageWord]

/-- A word that overlaps itself, glued twice before it stands free, and a keyword between an
identifier and a comment that has the other one. -/
theorem keyword_search_exact_overlapping :
    Text.IsWord "abab".toList ∧
    Text.OccursAt "abab".toList "éababab abab".toList 4 ∧
    IsLeast {o | BareAt "abab".toList "éababab abab".toList o} 9 ∧
    (∃ o, BareAt enumWord (Line.code "enums enum/// message".toList) o) ∧
    ¬ ∃ o, BareAt messageWord (Line.code "enums enum/// message".toList) o := by
  have hw : Text.IsWord "abab".toList := by decide
  obtain ⟨hsome, -, hline⟩ := keyword_search_exact hw "éababab abab".toList
  obtain ⟨-, henum, hmessage⟩ := hline "enums enum/// message".toList
  exact ⟨hw, ⟨"éab".toList, " abab".toList, by decide, by decide⟩, (hsome 9).mp (by decide),
    henum.mp (by decide), mt hmessage.mpr (by decide)⟩

end Markers

end SchemaDoc
