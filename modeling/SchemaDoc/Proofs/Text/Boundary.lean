import SchemaDoc.Text.Utf8

/-!
# Where a text can be cut

A byte offset is a boundary of a text when the first byte of a character stands there, or the text
ends there. These are exactly the offsets at which the text can be cut (`isSome_splitAt?_iff`), so
bytes can be replaced exactly when a boundary stands at both of their ends:
`isSome_replaceAt?_iff`.
-/

namespace SchemaDoc

namespace Text

/-- Whether a character of `t` begins at byte offset `n`, or `t` ends there. -/
def IsBoundary (t : Text) (n : Nat) : Prop :=
  n = byteSize t ∨ ∃ b, (Utf8.encode t)[n]? = some b ∧ b.IsUTF8FirstByte

theorem isBoundary_nil_iff {n : Nat} : IsBoundary [] n ↔ n = 0 := by
  simp [IsBoundary]

/-- A character has no boundary inside. -/
theorem isBoundary_cons_iff {c : Char} {t : Text} {n : Nat} :
    IsBoundary (c :: t) n ↔ n = 0 ∨ c.utf8Size ≤ n ∧ IsBoundary t (n - c.utf8Size) := by
  have hlength := String.length_utf8EncodeChar c
  have hpos := c.utf8Size_pos
  rw [IsBoundary, IsBoundary, Utf8.encode_cons, byteSize_cons]
  rcases Nat.lt_or_ge n c.utf8Size with hlt | hge
  · -- of the bytes of a character only the first is one that can begin it
    have hn : n < (String.utf8EncodeChar c).length := by rwa [hlength]
    have hfirst : (String.utf8EncodeChar c)[n].IsUTF8FirstByte ↔ n = 0 :=
      UInt8.isUTF8FirstByte_getElem_utf8EncodeChar
    rw [List.getElem?_append_left hn, List.getElem?_eq_getElem hn]
    simp only [Option.some.injEq, exists_eq_left', hfirst]
    omega
  · have hend : n = c.utf8Size + byteSize t ↔ n - c.utf8Size = byteSize t := by omega
    have hne : n ≠ 0 := by omega
    rw [List.getElem?_append_right (by omega), hlength]
    simp only [hend, hge, hne, true_and, false_or]

/-- **A text is cut at its boundaries** and nowhere else. -/
theorem isSome_splitAt?_iff {t : Text} {n : Nat} :
    (splitAt? n t).isSome = true ↔ IsBoundary t n := by
  induction t generalizing n with
  | nil =>
    rw [isBoundary_nil_iff]
    cases n <;> simp [splitAt?]
  | cons c t ih =>
    rw [isBoundary_cons_iff]
    rcases Nat.lt_or_ge n c.utf8Size with hlt | hge
    · cases n with
      | zero => simp
      | succ n => simp [splitAt?, Nat.not_le.mpr hlt]
    · have hne : n ≠ 0 := Nat.ne_of_gt (Nat.lt_of_lt_of_le c.utf8Size_pos hge)
      rw [splitAt?_cons n c t hge, Option.isSome_map, ih]
      simp only [hge, hne, true_and, false_or]

/-- **Bytes are replaced between boundaries** and nowhere else. -/
theorem isSome_replaceAt?_iff {n : Nat} {word new t : Text} :
    (replaceAt? n word new t).isSome = true ↔
      IsBoundary t n ∧ IsBoundary t (n + byteSize word) := by
  rw [← isSome_splitAt?_iff, ← isSome_splitAt?_iff, replaceAt?]
  cases splitAt? n t with
  | none => simp
  | some front =>
    cases splitAt? (n + byteSize word) t with
    | none => simp
    | some back => simp

end Text

end SchemaDoc
