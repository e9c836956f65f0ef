/-!
# Text and bytes

Text is a list of characters and raw data a list of bytes. Positions in text are counted in bytes of
its UTF-8 form: `Text.byteSize` measures a piece of text, `Text.splitAt?` cuts at a position and
`Text.replaceAt?` puts one piece in the place of another.

`splitAt?_byteSize_append` says that the end of a piece is always a place to cut, and
`eq_append_of_splitAt?` that a cut loses nothing and falls at the position asked for.
-/

namespace SchemaDoc

/-- Decoded text, one element a character. -/
abbrev Text := List Char

/-- Undecoded data. -/
abbrev Bytes := List UInt8

namespace Text

/-- The number of bytes that a text takes in UTF-8. -/
def byteSize : Text → Nat
  | [] => 0
  | c :: t => c.utf8Size + byteSize t

@[simp]
theorem byteSize_nil : byteSize [] = 0 := rfl

@[simp]
theorem byteSize_cons (c : Char) (t : Text) : byteSize (c :: t) = c.utf8Size + byteSize t := rfl

@[simp]
theorem byteSize_append (s t : Text) : byteSize (s ++ t) = byteSize s + byteSize t := by
  induction s with
  | nil => simp
  | cons c s ih => simp [ih, Nat.add_assoc]

theorem byteSize_pos {t : Text} (h : t ≠ []) : 0 < byteSize t := by
  cases t with
  | nil => exact absurd rfl h
  | cons c t =>
    have := c.utf8Size_pos
    rw [byteSize_cons]
    omega

/-- Cuts `t` at byte offset `n`; `none` when `n` lies inside a character or beyond the end. -/
def splitAt? : Nat → Text → Option (Text × Text)
  | 0, t => some ([], t)
  | _ + 1, [] => none
  | n + 1, c :: t =>
    if c.utf8Size ≤ n + 1 then
      (splitAt? (n + 1 - c.utf8Size) t).map fun (head, tail) => (c :: head, tail)
    else none

@[simp]
theorem splitAt?_zero (t : Text) : splitAt? 0 t = some ([], t) := by
  cases t <;> rfl

theorem splitAt?_cons (n : Nat) (c : Char) (t : Text) (h : c.utf8Size ≤ n) :
    splitAt? n (c :: t) =
      (splitAt? (n - c.utf8Size) t).map fun (head, tail) => (c :: head, tail) := by
  cases n with
  | zero => exact absurd h (by have := c.utf8Size_pos; omega)
  | succ n => simp [splitAt?, h]

/-- The end of a piece of text is a place to cut. -/
theorem splitAt?_byteSize_append (s t : Text) : splitAt? (byteSize s) (s ++ t) = some (s, t) := by
  induction s with
  | nil => simp
  | cons c s ih =>
    rw [byteSize_cons, List.cons_append, splitAt?_cons _ _ _ (Nat.le_add_right _ _)]
    simp [ih]

/-- A cut loses nothing and falls at the offset asked for. -/
theorem eq_append_of_splitAt? {n : Nat} {t head tail : Text}
    (h : splitAt? n t = some (head, tail)) : t = head ++ tail ∧ byteSize head = n := by
  induction t generalizing n head tail with
  | nil =>
    cases n with
    | zero => simp_all
    | succ n => simp [splitAt?] at h
  | cons c t ih =>
    cases n with
    | zero =>
      simp only [splitAt?, Option.some.injEq, Prod.mk.injEq] at h
      simp [← h.1, ← h.2]
    | succ n =>
      simp only [splitAt?] at h
      split at h
      · obtain ⟨⟨front, back⟩, hsplit, heq⟩ := Option.map_eq_some_iff.1 h
        obtain ⟨rfl, hsize⟩ := ih hsplit
        simp only [Prod.mk.injEq] at heq
        obtain ⟨rfl, rfl⟩ := heq
        exact ⟨rfl, by rw [byteSize_cons, hsize]; omega⟩
      · simp at h

/-- Puts `new` in the place of the bytes that `word` would take from byte offset `n` on; `none` when
one of the two ends of these bytes lies inside a character or beyond the end. -/
def replaceAt? (n : Nat) (word new t : Text) : Option Text := do
  let (head, _) ← splitAt? n t
  let (_, tail) ← splitAt? (n + byteSize word) t
  return head ++ new ++ tail

/-- A word can be replaced where it stands. -/
theorem replaceAt?_append (head word new tail : Text) :
    replaceAt? (byteSize head) word new (head ++ word ++ tail) = some (head ++ new ++ tail) := by
  have hhead : splitAt? (byteSize head) (head ++ word ++ tail) = some (head, word ++ tail) := by
    rw [List.append_assoc]
    exact splitAt?_byteSize_append head _
  have htail : splitAt? (byteSize head + byteSize word) (head ++ word ++ tail) =
      some (head ++ word, tail) := by
    rw [← byteSize_append]
    exact splitAt?_byteSize_append (head ++ word) tail
  rw [replaceAt?, hhead, htail]
  rfl

/-- The decimal numeral of `n`. -/
def ofNat (n : Nat) : Text := Nat.toDigits 10 n

end Text

end SchemaDoc
